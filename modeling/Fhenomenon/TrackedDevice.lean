import Fhenomenon.CertifiedContents
import Fhenomenon.ExecutorErasure
import Fhenomenon.MirroredExpressions
import Fhenomenon.UntouchedBuffers

/-!
# The ToyFHE device with what is known of it

A device that carries, for every live buffer, what is known of its ciphertexts.
Its hooks and kernels do to the device what those of the backend do, and the
laws of the ABI hold of what is known.
-/

namespace Fhenomenon.TrackedDevice

open Fhenomenon.InstructionStream Fhenomenon.MovementPlanner Fhenomenon.DefaultExecutor
open Fhenomenon.DispatchRecipes Fhenomenon.DeviceAbi Fhenomenon.LoweringSound
open Fhenomenon.UntouchedBuffers Fhenomenon.ToyFhe Fhenomenon.ToyFheKernels
open Fhenomenon.FusedDispatch Fhenomenon.ToyFheExecution Fhenomenon.ExecutorErasure
open Fhenomenon.CertifiedNoise Fhenomenon.CertifiedContents

/-- Every live buffer is as it is known to be. -/
structure Tracked (Ptr ρ : Type*) (engine : Engine) where
  device : Device Ptr ρ
  known : Ptr → Contents engine
  describes : ∀ buffer ∈ device.live, Describes (known buffer) (device.world.heap buffer)

section Settling

variable {Ptr ρ : Type*} {engine : Engine}

open Classical in
/-- Keeps what is true of `known`; of the other buffers only the kind stays known. -/
noncomputable def settle (device : Device Ptr ρ) (known : Ptr → Contents engine) :
    Tracked Ptr ρ engine where
  device := device
  known := fun buffer =>
    if Describes (known buffer) (device.world.heap buffer) then known buffer
    else .unknown engine (device.world.heap buffer)
  describes := by
    intro buffer _
    split
    · assumption
    · exact unknown_describes _

@[simp] theorem settle_device (device : Device Ptr ρ) (known : Ptr → Contents engine) :
    (settle device known).device = device := rfl

theorem settle_known {device : Device Ptr ρ} {known : Ptr → Contents engine} {buffer : Ptr}
    (describes : Describes (known buffer) (device.world.heap buffer)) :
    (settle device known).known buffer = known buffer := if_pos describes

end Settling

section Exports

variable {Ptr ρ : Type*} [DecidableEq Ptr] (draw : Int → Int → ρ → Int × ρ) (engine : Engine)

noncomputable def trackedAlloc (fresh : Finset Ptr → Ptr) (world : Tracked Ptr ρ engine) :
    Option Ptr × Tracked Ptr ρ engine :=
  let allocated := toyfheBufferAlloc fresh world.device
  (allocated.1,
    settle allocated.2 (Function.update world.known (fresh world.device.live) .empty))

noncomputable def trackedFree (buffer : Option Ptr) (world : Tracked Ptr ρ engine) :
    Tracked Ptr ρ engine :=
  settle (toyfheBufferFree buffer world.device) world.known

noncomputable def trackedHooks (fresh : Finset Ptr → Ptr) :
    FhnMovementHooks Ptr (Tracked Ptr ρ engine) where
  bufferAlloc := some (trackedAlloc engine fresh)
  bufferFree := some (trackedFree engine)

/-- After a success the result is known to be what the opcode makes of its operands. -/
noncomputable def trackedKernel (opcode : FhnOpCode) (fn : FhnKernelFn Ptr (Device Ptr ρ)) :
    FhnKernelFn Ptr (Tracked Ptr ρ engine) :=
  fun result operands params fparams world =>
    let outcome := fn result operands params fparams world.device
    let computed := applyContents engine opcode (fun slot => (operands slot).map world.known)
      params fparams
    (outcome.1, settle outcome.2 (match result with
      | none => world.known
      | some buffer =>
          if outcome.1 = 0 then Function.update world.known buffer computed.2 else world.known))

noncomputable def trackedTable : Dispatch Ptr (Tracked Ptr ρ engine) :=
  fun opcode => (toyfheTable draw engine opcode).map (trackedKernel engine opcode)

variable {draw engine}

theorem tracked_hooks_erase (fresh : Finset Ptr → Ptr) :
    HooksErase (Tracked.device : Tracked Ptr ρ engine → Device Ptr ρ) (trackedHooks engine fresh)
      (toyfheHooks fresh) where
  bufferAlloc := .some fun _ => rfl
  bufferFree := .some fun _ _ => rfl
  prefetch := .none
  evict := .none

theorem tracked_table_erases :
    TableErases (Tracked.device : Tracked Ptr ρ engine → Device Ptr ρ) (trackedTable draw engine)
      (toyfheTable draw engine) := by
  intro opcode
  rw [trackedTable]
  cases (toyfheTable draw engine : Dispatch Ptr (Device Ptr ρ)) opcode with
  | none => exact .none
  | some fn => exact .some fun _ _ _ _ _ => rfl

end Exports

section Table

variable {Ptr ρ : Type*} [DecidableEq Ptr] {draw : Int → Int → ρ → Int × ρ} {engine : Engine}

omit [DecidableEq Ptr] in
theorem registered_entry {σ : Type*} (entries : List (FhnKernelEntry Ptr σ)) {opcode : FhnOpCode}
    {fn : FhnKernelFn Ptr σ} (registered : dispatchTable entries opcode = some fn) :
    ∃ entry ∈ entries, entry.opcode = opcode ∧ entry.fn = some fn := by
  induction entries using List.reverseRecOn with
  | nil => cases registered
  | append_singleton earlier last induction =>
      have before (found : dispatchTable earlier opcode = some fn) :
          ∃ entry ∈ earlier ++ [last], entry.opcode = opcode ∧ entry.fn = some fn := by
        obtain ⟨entry, member, same⟩ := induction found
        exact ⟨entry, List.mem_append_left _ member, same⟩
      rw [dispatchTable, List.foldl_append, List.foldl_cons, List.foldl_nil] at registered
      cases filled : last.fn with
      | none =>
          rw [filled] at registered
          exact before registered
      | some kernel =>
          rw [filled] at registered
          dsimp only at registered
          by_cases same : opcode = last.opcode
          · rw [same, Function.update_self] at registered
            exact ⟨last, by simp, same.symm, filled.trans registered⟩
          · rw [Function.update_of_ne same] at registered
            exact before registered

theorem toyfhe_table_entry {opcode : FhnOpCode} {fn : FhnKernelFn Ptr (Device Ptr ρ)}
    (registered : toyfheTable draw engine opcode = some fn) :
    ∃ entry ∈ toyfheKernels draw engine, ∃ kernel, entry.fn = some kernel ∧
      entry.opcode = opcode ∧ fn = onDevice kernel := by
  obtain ⟨mapped, member, same, filled⟩ := registered_entry _ registered
  obtain ⟨entry, listed, rfl⟩ := List.mem_map.mp member
  obtain ⟨kernel, given, device⟩ := Option.map_eq_some_iff.mp filled
  exact ⟨entry, listed, kernel, given, same, device.symm⟩

/-- A kernel writes its result and nothing else. -/
def WritesResult (fn : FhnKernelFn Ptr (World Ptr ρ)) : Prop :=
  ∀ result operands params fparams world buffer, result ≠ some buffer →
    (fn result operands params fparams world).2.heap buffer = world.heap buffer

theorem write_elsewhere {result : Option Ptr} {update : FhnBuffer → FhnBuffer} {buffer : Ptr}
    (world : World Ptr ρ) (apart : result ≠ some buffer) :
    (write result update world).2.heap buffer = world.heap buffer := by
  cases result with
  | none => rfl
  | some target =>
      rw [write_some]
      exact Function.update_of_ne (fun same => apart (congrArg some same.symm)) _ _

theorem binary_writes (op : Ciphertext → Ciphertext → ρ → Ciphertext × ρ) :
    WritesResult (binaryKernel op : FhnKernelFn Ptr (World Ptr ρ)) := by
  intro result operands params fparams world buffer apart
  simp only [binaryKernel]
  split
  · split
    · split
      · rfl
      · simp only [toyfheVecBinary]
        split
        · rfl
        · exact write_elsewhere { world with rng := _ } apart
    · exact write_elsewhere { world with rng := _ } apart
  · rfl

theorem kernels_write {entry : FhnKernelEntry Ptr (World Ptr ρ)}
    (member : entry ∈ toyfheKernels draw engine) {fn : FhnKernelFn Ptr (World Ptr ρ)}
    (registered : entry.fn = some fn) : WritesResult fn := by
  have passes : WritesResult (toyfhePassthrough : FhnKernelFn Ptr (World Ptr ρ)) := by
    intro result operands params fparams world buffer apart
    simp only [toyfhePassthrough]
    split
    · rfl
    · split
      · rfl
      · split
        · rfl
        · exact write_elsewhere world apart
  simp only [toyfheKernels, List.mem_cons, List.not_mem_nil, or_false] at member
  rcases member with rfl | rfl | rfl | rfl | rfl | rfl | rfl | rfl | rfl | rfl | rfl <;>
    obtain rfl := Option.some.inj registered
  · exact binary_writes (addSlots engine)
  · intro result operands params fparams world buffer apart
    simp only [toyfheAddCs]
    split
    · rfl
    · exact write_elsewhere world apart
  · intro result operands params fparams world buffer apart
    simp only [toyfheSubCc]
    split
    · exact write_elsewhere world apart
    · rfl
  · intro result operands params fparams world buffer apart
    simp only [toyfheNegate]
    split
    · rfl
    · exact write_elsewhere world apart
  · exact binary_writes (engine.multiply draw)
  · intro result operands params fparams world buffer apart
    simp only [toyfheMultCs]
    split
    · rfl
    · exact write_elsewhere { world with rng := _ } apart
  · exact passes
  · exact passes
  · intro result operands params fparams world buffer apart
    simp only [toyfheRotate]
    split
    · rfl
    · split
      · rfl
      · exact write_elsewhere world apart
  · exact binary_writes (engine.multiply draw)
  · intro result operands params fparams world buffer apart
    simp only [toyfheHrotAdd]
    split
    · split
      · rfl
      · exact write_elsewhere world apart
    · rfl

end Table

section Laws

variable {Ptr ρ : Type*} [DecidableEq Ptr] {draw : Int → Int → ρ → Int × ρ} {engine : Engine}

/-- A live buffer holds what is known of it; refusals are known too. -/
def contentsModel (Ptr ρ : Type*) [DecidableEq Ptr] (engine : Engine) :
    DeviceModel Ptr (Tracked Ptr ρ engine) (Contents engine) Unit where
  cell world buffer :=
    if buffer ∈ world.device.live then some ⟨true, world.known buffer⟩ else none
  context _ := ()
  apply opcode _ operands params fparams :=
    let computed := applyContents engine opcode operands params fparams
    (computed.1, computed.2, ())

theorem contents_cell {world : Tracked Ptr ρ engine} {buffer : Ptr}
    (live : buffer ∈ world.device.live) :
    (contentsModel Ptr ρ engine).cell world buffer = some ⟨true, world.known buffer⟩ := if_pos live

theorem contents_dead {world : Tracked Ptr ρ engine} {buffer : Ptr}
    (dead : buffer ∉ world.device.live) : (contentsModel Ptr ρ engine).cell world buffer = none :=
  if_neg dead

theorem contents_resident {world : Tracked Ptr ρ engine} {buffer : Ptr}
    (resident : (contentsModel Ptr ρ engine).Resident world buffer) :
    buffer ∈ world.device.live := by
  obtain ⟨value, cell⟩ := resident
  simp only [contentsModel] at cell
  split at cell
  · assumption
  · cases cell

theorem contents_live {world : Tracked Ptr ρ engine} {buffer : Ptr}
    (live : buffer ∈ world.device.live) :
    (contentsModel Ptr ρ engine).contents world buffer = some (world.known buffer) := by
  rw [DeviceModel.contents, contents_cell live, Option.map_some]

omit [DecidableEq Ptr] in
theorem settle_elsewhere {world : Tracked Ptr ρ engine} {device : Device Ptr ρ}
    {known : Ptr → Contents engine} {buffer : Ptr} (live : buffer ∈ world.device.live)
    (kept : device.world.heap buffer = world.device.world.heap buffer)
    (same : known buffer = world.known buffer) :
    (settle device known).known buffer = world.known buffer := by
  rw [settle_known, same]
  rw [kept, same]
  exact world.describes buffer live

theorem tracked_registered {opcode : FhnOpCode} {fn : FhnKernelFn Ptr (Tracked Ptr ρ engine)}
    (registered : trackedTable draw engine opcode = some fn) :
    ∃ entry ∈ toyfheKernels draw engine, ∃ kernel, entry.fn = some kernel ∧
      entry.opcode = opcode ∧ fn = trackedKernel engine opcode (onDevice kernel) := by
  obtain ⟨plain, found, rfl⟩ := Option.map_eq_some_iff.mp registered
  obtain ⟨entry, member, kernel, filled, same, rfl⟩ := toyfhe_table_entry found
  exact ⟨entry, member, kernel, filled, same, rfl⟩

theorem contents_kernel_law (works : Workable draw engine) :
    KernelLaw (contentsModel Ptr ρ engine) (trackedTable draw engine) := by
  intro opcode fn registered world result operands params fparams live operandsLive
  obtain ⟨entry, member, kernel, filled, rfl, rfl⟩ := tracked_registered registered
  have reads : (fun slot => (operands slot).bind ((contentsModel Ptr ρ engine).contents world)) =
      fun slot => (operands slot).map world.known := by
    funext slot
    cases handed : operands slot with
    | none => rfl
    | some buffer => exact contents_live (contents_resident (operandsLive slot buffer handed))
  have described (slot : Fin 4) (buffer : Ptr) (handed : operands slot = some buffer) :
      Describes (world.known buffer) (world.device.world.heap buffer) :=
    world.describes buffer (contents_resident (operandsLive slot buffer handed))
  have resultLive := contents_resident live
  obtain ⟨code, written⟩ := kernels_follow works member filled result operands params fparams
    world.device.world world.known described
  rw [reads]
  refine ⟨code, fun success => ⟨?_, rfl⟩⟩
  obtain ⟨stored, heap, describes⟩ := written success
  have zero : (onDevice kernel (some result) operands params fparams world.device).1 = 0 :=
    code.trans success
  have after : (onDevice kernel (some result) operands params fparams world.device).2.world.heap =
      Function.update world.device.world.heap result stored := heap
  intro buffer
  simp only [trackedKernel, if_pos zero]
  by_cases same : buffer = result
  · rw [if_pos same, same, contents_cell (by exact resultLive), settle_known]
    · rw [Function.update_self]
      rfl
    · rw [after, Function.update_self, Function.update_self]
      exact describes
  · rw [if_neg same]
    by_cases member : buffer ∈ world.device.live
    · rw [contents_cell (by exact member), contents_cell member,
        settle_elsewhere member (by rw [after, Function.update_of_ne same])
          (Function.update_of_ne same _ _)]
    · rw [contents_dead (by exact member), contents_dead member]

theorem tracked_allocated (fresh : Finset Ptr → Ptr) (world : Tracked Ptr ρ engine)
    (buffer : Ptr) :
    (contentsModel Ptr ρ engine).cell (trackedAlloc engine fresh world).2 buffer =
      if buffer = fresh world.device.live then some ⟨true, .empty⟩
      else (contentsModel Ptr ρ engine).cell world buffer := by
  by_cases same : buffer = fresh world.device.live
  · rw [if_pos same, same, contents_cell (Finset.mem_insert_self _ _)]
    simp only [trackedAlloc, toyfheBufferAlloc]
    rw [settle_known, Function.update_self]
    simp only [Function.update_self]
    exact ⟨by decide, by decide⟩
  · rw [if_neg same]
    by_cases member : buffer ∈ world.device.live
    · rw [contents_cell (Finset.mem_insert_of_mem member), contents_cell member]
      simp only [trackedAlloc, toyfheBufferAlloc]
      rw [settle_elsewhere member (Function.update_of_ne same _ _) (Function.update_of_ne same _ _)]
    · rw [contents_dead member]
      apply contents_dead
      intro inserted
      exact (Finset.mem_insert.mp inserted).elim same member

theorem tracked_freed (world : Tracked Ptr ρ engine) (buffer other : Ptr) :
    (contentsModel Ptr ρ engine).cell (trackedFree engine (some buffer) world) other =
      if other = buffer then none else (contentsModel Ptr ρ engine).cell world other := by
  by_cases same : other = buffer
  · rw [if_pos same, same]
    exact contents_dead (Finset.notMem_erase _ _)
  · rw [if_neg same]
    by_cases member : other ∈ world.device.live
    · rw [contents_cell (Finset.mem_erase.mpr ⟨same, member⟩), contents_cell member]
      have kept : (trackedFree engine (some buffer) world).known other = world.known other :=
        (settle_elsewhere member rfl rfl :
          (settle (toyfheBufferFree (some buffer) world.device) world.known).known other = _)
      rw [kept]
    · rw [contents_dead member]
      exact contents_dead fun kept => member (Finset.mem_of_mem_erase kept)

theorem tracked_called {opcode : FhnOpCode} {fn : FhnKernelFn Ptr (Tracked Ptr ρ engine)}
    (registered : trackedTable draw engine opcode = some fn) (result : Option Ptr)
    (operands : Fin 4 → Option Ptr) (params : Fin 4 → Int) (fparams : Fin 2 → Rat)
    (world : Tracked Ptr ρ engine) :
    (fn result operands params fparams world).2.device.live = world.device.live ∧
      ∀ buffer ∈ world.device.live, result ≠ some buffer →
        (fn result operands params fparams world).2.known buffer = world.known buffer := by
  obtain ⟨entry, member, kernel, filled, rfl, rfl⟩ := tracked_registered registered
  refine ⟨rfl, ?_⟩
  intro buffer live apart
  have kept := kernels_write member filled result operands params fparams world.device.world buffer
    apart
  apply settle_elsewhere live kept
  cases result with
  | none => rfl
  | some target =>
      have other : buffer ≠ target := fun same => apart (congrArg some same.symm)
      dsimp only
      split
      · exact Function.update_of_ne other _ _
      · rfl

/-- Hooks and kernels leave what is known of other buffers alone, whatever they are given. -/
theorem tracked_contents_laws {fresh : Finset Ptr → Ptr} (pointers : FreshPointers fresh) :
    ContentsLaws (contentsModel Ptr ρ engine).contents (trackedHooks engine fresh)
      (trackedTable draw engine) where
  allocated := by
    intro alloc same world made given
    obtain rfl := Option.some.inj same
    obtain rfl := Option.some.inj given
    constructor
    · rw [DeviceModel.contents, contents_dead (pointers _), Option.map_none]
    · rw [DeviceModel.contents, tracked_allocated, if_pos rfl]
      rfl
  allocates := by
    intro alloc same world buffer value held
    obtain rfl := Option.some.inj same
    have apart : buffer ≠ fresh world.device.live := by
      rintro rfl
      rw [DeviceModel.contents, contents_dead (pointers _)] at held
      cases held
    rw [DeviceModel.contents, tracked_allocated, if_neg apart]
    exact held
  freed := by
    intro free same world buffer _ other value apart held
    obtain rfl := Option.some.inj same
    rw [DeviceModel.contents, tracked_freed, if_neg apart]
    exact held
  freesNull := by
    intro free same world buffer value held
    obtain rfl := Option.some.inj same
    by_cases live : buffer ∈ world.device.live
    · rw [contents_live live] at held
      rw [contents_live (by exact live), ← held]
      exact congrArg some (settle_elsewhere live rfl rfl)
    · rw [DeviceModel.contents, contents_dead live] at held
      cases held
  evicted := by
    intro evict impossible
    cases impossible
  prefetched := by
    intro prefetch impossible
    cases impossible
  called := by
    intro opcode fn registered result operands params fparams world buffer value held
    obtain ⟨still, kept⟩ := tracked_called registered result operands params fparams world
    by_cases live : buffer ∈ world.device.live
    · have after : buffer ∈ (fn result operands params fparams world).2.device.live := by
        rw [still]
        exact live
      rw [contents_live after]
      rw [contents_live live] at held
      refine ⟨rfl, fun apart => ?_⟩
      rw [kept buffer live apart, held]
    · rw [DeviceModel.contents, contents_dead live] at held
      cases held

end Laws

end Fhenomenon.TrackedDevice

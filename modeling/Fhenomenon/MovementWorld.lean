import Fhenomenon.DeviceAbi

/-!
# A world of buffers

The `MovementWorld` of the executor's tests: numbered single-integer buffers,
each on the device or on the host. Reading a buffer that is not on the device
throws there; here the kernel fails.
-/

namespace Fhenomenon.MovementWorld

open Fhenomenon.InstructionStream Fhenomenon.MovementPlanner Fhenomenon.DefaultExecutor
open Fhenomenon.DeviceAbi

/-- `device_vals` and `host_vals`, indexed by allocation; a freed buffer is `none`. -/
abbrev World := List (Option (Cell Int))

def cellAt (world : World) (buffer : Nat) : Option (Cell Int) := (world[buffer]?).join

def movementAlloc (world : World) : Option Nat × World :=
  (some world.length, world ++ [some ⟨true, 0⟩])

def movementFree : Option Nat → World → World
  | none, world => world
  | some buffer, world => world.set buffer none

def movementEvict : Option Nat → World → Int × World
  | none, world => (-1, world)
  | some buffer, world =>
      match cellAt world buffer with
      | some ⟨true, value⟩ => (0, world.set buffer (some ⟨false, value⟩))
      | _ => (-1, world)

def movementPrefetch : Option Nat → World → Int × World
  | none, world => (-1, world)
  | some buffer, world =>
      match cellAt world buffer with
      | some cell => (0, world.set buffer (some ⟨true, cell.contents⟩))
      | none => (-1, world)

/-- The value of a buffer that is on the device. -/
def deviceVal (world : World) (buffer : Option Nat) : Option Int :=
  match buffer.bind (cellAt world) with
  | some ⟨true, value⟩ => some value
  | _ => none

def movementAddKernel : FhnKernelFn Nat World :=
  fun result ops _ _ world =>
    match deviceVal world (ops 0), deviceVal world (ops 1), result, deviceVal world result with
    | some first, some second, some buffer, some _ =>
        (0, world.set buffer (some ⟨true, first + second⟩))
    | _, _, _, _ => (-1, world)

def movementTable : Dispatch Nat World :=
  dispatchTable [{ opcode := .addCC, fn := some movementAddKernel }]

def movementHooks : FhnMovementHooks Nat World where
  bufferAlloc := some movementAlloc
  bufferFree := some movementFree
  prefetch := some movementPrefetch
  evict := some movementEvict

def addValues (ops : Fin 4 → Option Int) : Int × Int × Unit :=
  match ops 0, ops 1 with
  | some first, some second => (0, first + second, ())
  | _, _ => (-1, 0, ())

/-- Contents are integers and there is no context. -/
def movementModel : DeviceModel Nat World Int Unit where
  cell := cellAt
  context := fun _ => ()
  apply := fun _ _ ops _ _ => addValues ops

theorem cell_lt {world : World} {buffer : Nat} {cell : Cell Int}
    (live : cellAt world buffer = some cell) : buffer < world.length := by
  rw [cellAt, Option.join_eq_some_iff] at live
  exact (List.getElem?_eq_some_iff.mp live).1

theorem cell_set (world : World) (buffer other : Nat) (cell : Option (Cell Int))
    (bound : buffer < world.length) :
    cellAt (world.set buffer cell) other =
      if other = buffer then cell else cellAt world other := by
  rw [cellAt, List.getElem?_set]
  by_cases same : other = buffer
  · subst same
    simp [bound]
  · have different : ¬buffer = other := fun equal => same equal.symm
    simp [same, different, cellAt]

theorem cell_overwrite {world : World} {buffer : Nat} {old : Cell Int}
    (live : cellAt world buffer = some old) (cell : Cell Int) (other : Nat) :
    (cellAt (world.set buffer (some cell)) other).isSome = true ↔
      (cellAt world other).isSome = true := by
  rw [cell_set world buffer other (some cell) (cell_lt live)]
  by_cases same : other = buffer
  · simp [same, live]
  · simp [same]

theorem cell_append (world : World) (cell : Cell Int) (other : Nat) :
    cellAt (world ++ [some cell]) other =
      if other = world.length then some cell else cellAt world other := by
  rw [cellAt, List.getElem?_append]
  by_cases small : other < world.length
  · have different : other ≠ world.length := by omega
    simp [small, different, cellAt]
  · by_cases last : other = world.length
    · simp [last]
    · have outside : world.length ≤ other := by omega
      have beyond : 1 ≤ other - world.length := by omega
      simp [small, last, cellAt, List.getElem?_eq_none, beyond]

theorem movement_hook_laws : HookLaws movementModel movementHooks movementAlloc movementFree where
  allocHook := rfl
  freeHook := rfl
  paired := fun _ => rfl
  allocated := by
    intro world
    refine ⟨world.length, 0, rfl, ?_, cell_append world ⟨true, 0⟩, rfl⟩
    simp [movementModel, cellAt]
  freed := by
    intro world buffer cell live
    exact ⟨fun other => cell_set world buffer other none (cell_lt live), rfl⟩
  evicted := by
    intro evict registered world buffer value live
    obtain rfl : movementEvict = evict := Option.some.inj registered
    have found : cellAt world buffer = some ⟨true, value⟩ := live
    have moved : movementEvict (some buffer) world =
        (0, world.set buffer (some ⟨false, value⟩)) := by
      simp only [movementEvict, found]
    rw [moved]
    exact ⟨rfl, fun other => cell_set world buffer other _ (cell_lt live), rfl⟩
  prefetched := by
    intro prefetch registered world buffer cell live
    obtain rfl : movementPrefetch = prefetch := Option.some.inj registered
    have found : cellAt world buffer = some cell := live
    have moved : movementPrefetch (some buffer) world =
        (0, world.set buffer (some ⟨true, cell.contents⟩)) := by
      simp only [movementPrefetch, found]
    rw [moved]
    exact ⟨rfl, fun other => cell_set world buffer other _ (cell_lt live), rfl⟩

theorem device_val_resident {world : World} {buffer : Nat}
    (resident : movementModel.Resident world buffer) :
    deviceVal world (some buffer) = movementModel.contents world buffer ∧
      (deviceVal world (some buffer)).isSome := by
  obtain ⟨value, cell⟩ := resident
  have found : cellAt world buffer = some ⟨true, value⟩ := cell
  have seen : deviceVal world (some buffer) = some value := by
    simp only [deviceVal, Option.bind_some, found]
  refine ⟨?_, by rw [seen]; rfl⟩
  rw [seen, DeviceModel.contents, cell]
  rfl

theorem movement_table_add {opcode : FhnOpCode} {fn : FhnKernelFn Nat World}
    (registered : movementTable opcode = some fn) : fn = movementAddKernel := by
  by_cases add : opcode = .addCC
  · subst add
    exact (Option.some.inj registered).symm
  · simp [movementTable, dispatchTable, Function.update_of_ne add] at registered

theorem movement_kernel_law : KernelLaw movementModel movementTable := by
  intro opcode fn registered world result operands params fparams resident handed
  obtain rfl := movement_table_add registered
  have operand (slot : Fin 4) :
      (operands slot).bind (movementModel.contents world) = deviceVal world (operands slot) := by
    cases given : operands slot with
    | none => rfl
    | some buffer => exact (device_val_resident (handed slot buffer given)).1.symm
  have computed : movementModel.apply opcode (movementModel.context world)
      (fun slot => (operands slot).bind (movementModel.contents world)) params fparams =
        addValues (fun slot => deviceVal world (operands slot)) := by
    have same : (fun slot => (operands slot).bind (movementModel.contents world)) =
        fun slot => deviceVal world (operands slot) := by
      funext slot
      exact operand slot
    exact congrArg addValues same
  obtain ⟨old, held⟩ := Option.isSome_iff_exists.mp (device_val_resident resident).2
  obtain ⟨value, cell⟩ := resident
  simp only [computed, addValues, movementAddKernel, held]
  cases deviceVal world (operands 0) with
  | none => simp
  | some first =>
      cases deviceVal world (operands 1) with
      | none => simp
      | some second =>
          exact ⟨rfl, fun _ => ⟨fun other => cell_set world result other _ (cell_lt cell), trivial⟩⟩

def twoSums : FhnProgram where
  instructions := [
    { opcode := .addCC, resultId := 10, operands := ![1, 2, 0, 0] },
    { opcode := .addCC, resultId := 11, operands := ![2, 3, 0, 0] }]
  inputIds := [1, 2, 3]
  outputIds := [11]

/-- Three slots hold one sum and its operands, so input 1 is evicted. -/
def twoSumsPlan : FhnMovementPlan where
  actions :=
    [{ evict := [], alloc := [10], prefetch := [1, 2], free := [10] },
      { evict := [1], alloc := [11], prefetch := [3], free := [3] }]
  stats :=
    { highWater := 3, allocCount := 2, prefetchCount := 3, evictCount := 1, highWaterBytes := 0 }

theorem analyze_two_sums :
    analyze twoSums [1, 2, 11] 3 .belady none = some twoSumsPlan := by
  decide

/-- One buffer for each id of `twoSums`. -/
def separate : Buffers Nat
  | 1 => some 0
  | 2 => some 1
  | 3 => some 2
  | 10 => some 3
  | 11 => some 4
  | _ => none

def aliased : Buffers Nat
  | 1 => some 0
  | 2 => some 0
  | 3 => some 1
  | _ => none

def mixedWorld : World := [some ⟨true, 5⟩, some ⟨false, 7⟩, some ⟨true, 11⟩]

def plainWorld (first second third : Int) : World :=
  [some ⟨true, first⟩, some ⟨true, second⟩, some ⟨true, third⟩, some ⟨true, 0⟩, some ⟨true, 0⟩]

def sumThenSub : FhnProgram where
  instructions := [
    { opcode := .addCC, resultId := 3, operands := ![1, 2, 0, 0] },
    { opcode := .subCC, resultId := 4, operands := ![3, 3, 0, 0] }]
  inputIds := [1, 2]
  outputIds := [4]

def sumThenSubPlan : FhnMovementPlan where
  actions :=
    [{ evict := [], alloc := [3], prefetch := [1, 2], free := [1, 2] },
      { evict := [], alloc := [4], prefetch := [], free := [3] }]
  stats :=
    { highWater := 3, allocCount := 2, prefetchCount := 2, evictCount := 0, highWaterBytes := 0 }

theorem analyze_sum_then_sub :
    analyze sumThenSub [4] 0 .belady none = some sumThenSubPlan := by
  decide

def separatePair : Buffers Nat
  | 1 => some 0
  | 2 => some 1
  | _ => none

def aliasedPair : Buffers Nat
  | 1 => some 0
  | 2 => some 0
  | _ => none

end Fhenomenon.MovementWorld

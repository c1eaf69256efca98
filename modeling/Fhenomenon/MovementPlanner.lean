import Fhenomenon.Lib.OrderedSet
import Fhenomenon.InstructionStream

/-!
# The movement planner

`FhnMovementPlan::analyze`, block by block: definition table, use table, level
inference, unit costs, and the budgeted loop that simulates residency. Unit
sums are `uint64_t` and wrap exactly as in the source. `kNever` is the top
element, which sorts above every position.
-/

namespace Fhenomenon.MovementPlanner

open Fhenomenon.Lib Fhenomenon.InstructionStream

inductive FhnEvictionPolicy
  | belady | lru
deriving DecidableEq, Repr

/-- A backend declares an effect as a raw enumerator; `other` is any value the
planner's `switch` does not name. -/
inductive FhnLevelEffect
  | preserve | consume | setParam0 | other (raw : Int)
deriving DecidableEq, Repr

structure FhnLevelModel where
  freshLevel : Int := 0
  bytesByLevel : List UInt64 := []
  effects : FhnOpCode → Option FhnLevelEffect := fun _ => none

structure FhnMovementActions where
  evict : List Nat := []
  alloc : List Nat := []
  prefetch : List Nat := []
  free : List Nat := []
deriving DecidableEq, Repr

structure Stats where
  highWater : UInt32 := 0
  allocCount : UInt32 := 0
  prefetchCount : UInt32 := 0
  evictCount : UInt32 := 0
  highWaterBytes : UInt64 := 0
deriving DecidableEq, Repr

structure FhnMovementPlan where
  actions : List FhnMovementActions
  stats : Stats
deriving DecidableEq, Repr

/-- `kBeforeProgram` -/
def beforeProgram : Int := -1

abbrev DefPos := Nat → Option Int

abbrev Uses := Nat → List Int

def defineInputs : List Nat → DefPos → Option DefPos
  | [], defPos => some defPos
  | id :: rest, defPos =>
      if id = 0 ∨ (defPos id).isSome then none
      else defineInputs rest (Function.update defPos id (some beforeProgram))

def defineResults : List FhnInstruction → Nat → DefPos → Option DefPos
  | [], _, defPos => some defPos
  | inst :: rest, i, defPos =>
      if inst.resultId = 0 ∨ (defPos inst.resultId).isSome then none
      else defineResults rest (i + 1) (Function.update defPos inst.resultId (some (i : Int)))

/-- One instruction's operand loop: every used operand must be defined strictly
earlier, and its use list grows by the current position. -/
def recordUses (defPos : DefPos) (pos : Int) : List Nat → Uses → Option Uses
  | [], uses => some uses
  | id :: rest, uses =>
      match defPos id with
      | none => none
      | some defined =>
          if defined ≥ pos then none
          else recordUses defPos pos rest (Function.update uses id (uses id ++ [pos]))

def collectUses (defPos : DefPos) : List FhnInstruction → Nat → Uses → Option Uses
  | [], _, uses => some uses
  | inst :: rest, i, uses =>
      match recordUses defPos (i : Int) inst.usedOperands uses with
      | none => none
      | some extended => collectUses defPos rest (i + 1) extended

def validModel (model : FhnLevelModel) : Bool :=
  decide (0 ≤ model.freshLevel) &&
    decide (model.freshLevel.toNat + 1 ≤ model.bytesByLevel.length) &&
    model.bytesByLevel.all (· ≠ 0)

/-- The minimum over the operand levels, starting at the fresh level. The
source reads `level_of.at(id)`; every operand has a level once validated. -/
def minOperandLevel (model : FhnLevelModel) (levelOf : Nat → Option Int)
    (inst : FhnInstruction) : Int :=
  inst.usedOperands.foldl (fun level id => min level ((levelOf id).getD model.freshLevel))
    model.freshLevel

def resultLevel (model : FhnLevelModel) (levelOf : Nat → Option Int)
    (inst : FhnInstruction) : Option Int :=
  let minLevel := minOperandLevel model levelOf inst
  let raised : Option Int :=
    match model.effects inst.opcode with
    | none => none
    | some .preserve => some minLevel
    | some .consume => some (minLevel - 1)
    | some .setParam0 => if inst.params 0 > minLevel then none else some (inst.params 0)
    | some (.other _) => none
  match raised with
  | none => none
  | some level => if level < 0 ∨ level > model.freshLevel then none else some level

def inferResultLevels (model : FhnLevelModel) :
    List FhnInstruction → (Nat → Option Int) → Option (Nat → Option Int)
  | [], levelOf => some levelOf
  | inst :: rest, levelOf =>
      match resultLevel model levelOf inst with
      | none => none
      | some level =>
          inferResultLevels model rest (Function.update levelOf inst.resultId (some level))

def inputLevels (model : FhnLevelModel) (inputIds : List Nat) : Nat → Option Int :=
  fun id => if id ∈ inputIds then some model.freshLevel else none

def inferLevels (model : FhnLevelModel) (program : FhnProgram) : Option (Nat → Option Int) :=
  if validModel model then
    inferResultLevels model program.instructions (inputLevels model program.inputIds)
  else none

/-- Bytes at the id's level in byte mode, one in slot mode. -/
def unitCost (model : Option FhnLevelModel) (levelOf : Nat → Option Int) (id : Nat) : UInt64 :=
  match model with
  | some model => model.bytesByLevel.getD ((levelOf id).getD 0).toNat 0
  | none => 1

/-- First use strictly after `pos`, or `kNever`. -/
def nextUseAfter (uses : Uses) (id : Nat) (pos : Int) : WithTop Int :=
  match (uses id).find? (fun use => decide (pos < use)) with
  | some use => (use : WithTop Int)
  | none => ⊤

/-- What the main loop reads but never changes. -/
structure PlanContext where
  uses : Uses
  cost : Nat → UInt64
  pinned : List Nat
  deviceBudget : UInt64
  policy : FhnEvictionPolicy
  byteMode : Bool

structure PlanState where
  resident : OrderedSet Nat := OrderedSet.empty
  residentUnits : UInt64 := 0
  lastTouch : Nat → Option Int := fun _ => none
  stats : Stats := {}

def operandSet (inst : FhnInstruction) : OrderedSet Nat := OrderedSet.ofList inst.usedOperands

def workingSet (inst : FhnInstruction) : OrderedSet Nat :=
  inst.usedOperands.foldl OrderedSet.insert (OrderedSet.empty.insert inst.resultId)

def toPrefetch (state : PlanState) (inst : FhnInstruction) : List Nat :=
  (operandSet inst).elems.filter (fun id => !state.resident.contains id)

def sumUnits (cost : Nat → UInt64) (ids : List Nat) (start : UInt64) : UInt64 :=
  ids.foldl (fun units id => units + cost id) start

def victimKey (ctx : PlanContext) (state : PlanState) (pos : Int) (id : Nat) : WithTop Int :=
  match ctx.policy with
  | .belady => nextUseAfter ctx.uses id (pos - 1)
  | .lru => (((state.lastTouch id).getD (-1) : Int) : WithTop Int)

/-- Use positions are compared by the computable order on `Int`. -/
instance usePositionLt : DecidableLT (WithTop Int) :=
  (@WithTop.linearOrder Int Int.instLinearOrder).toDecidableLT

/-- Strict comparisons keep the earlier, lower id on ties. -/
def beatsVictim (policy : FhnEvictionPolicy) (key victimKey : WithTop Int) : Bool :=
  match policy with
  | .belady => decide (victimKey < key)
  | .lru => decide (key < victimKey)

def scanVictim (ctx : PlanContext) (key : Nat → WithTop Int) (working : OrderedSet Nat) :
    List Nat → Option (Nat × WithTop Int) → Option (Nat × WithTop Int)
  | [], best => best
  | id :: rest, best =>
      if working.contains id then scanVictim ctx key working rest best
      else
        match best with
        | none => scanVictim ctx key working rest (some (id, key id))
        | some (victim, bestKey) =>
            if beatsVictim ctx.policy (key id) bestKey then
              scanVictim ctx key working rest (some (id, key id))
            else scanVictim ctx key working rest (some (victim, bestKey))

def selectVictim (ctx : PlanContext) (state : PlanState) (pos : Int)
    (working : OrderedSet Nat) : Option Nat :=
  (scanVictim ctx (victimKey ctx state pos) working state.resident.elems none).map Prod.fst

def PlanState.evict (state : PlanState) (ctx : PlanContext) (victim : Nat) : PlanState :=
  { state with
    resident := state.resident.erase victim
    residentUnits := state.residentUnits - ctx.cost victim
    stats := { state.stats with evictCount := state.stats.evictCount + 1 } }

def PlanState.allocate (state : PlanState) (ctx : PlanContext) (pos : Int) (id : Nat) :
    PlanState :=
  { resident := state.resident.insert id
    residentUnits := state.residentUnits + ctx.cost id
    lastTouch := Function.update state.lastTouch id (some pos)
    stats := { state.stats with allocCount := state.stats.allocCount + 1 } }

def PlanState.prefetch (state : PlanState) (ctx : PlanContext) (pos : Int) (id : Nat) :
    PlanState :=
  { resident := state.resident.insert id
    residentUnits := state.residentUnits + ctx.cost id
    lastTouch := Function.update state.lastTouch id (some pos)
    stats := { state.stats with prefetchCount := state.stats.prefetchCount + 1 } }

def PlanState.recordHighWater (state : PlanState) (ctx : PlanContext) : PlanState :=
  { state with
    stats :=
      { state.stats with
        highWater := max state.stats.highWater (UInt32.ofNat state.resident.size)
        highWaterBytes :=
          if ctx.byteMode then max state.stats.highWaterBytes state.residentUnits
          else state.stats.highWaterBytes } }

def PlanState.touch (state : PlanState) (pos : Int) (id : Nat) : PlanState :=
  { state with lastTouch := Function.update state.lastTouch id (some pos) }

def PlanState.free (state : PlanState) (ctx : PlanContext) (id : Nat) : PlanState :=
  { state with
    resident := state.resident.erase id
    residentUnits := state.residentUnits - ctx.cost id }

/-- The `while` loop. Each pass erases one resident, so `resident.size` passes
suffice: with no resident left the scan finds no victim. -/
def evictLoop (ctx : PlanContext) (pos : Int) (working : OrderedSet Nat)
    (incomingUnits : UInt64) : Nat → PlanState → Option (List Nat × PlanState)
  | 0, state =>
      if state.residentUnits + incomingUnits > ctx.deviceBudget then none else some ([], state)
  | fuel + 1, state =>
      if state.residentUnits + incomingUnits > ctx.deviceBudget then
        match selectVictim ctx state pos working with
        | none => none
        | some victim =>
            match evictLoop ctx pos working incomingUnits fuel (state.evict ctx victim) with
            | none => none
            | some (victims, settled) => some (victim :: victims, settled)
      else some ([], state)

def makeRoom (ctx : PlanContext) (pos : Int) (inst : FhnInstruction) (state : PlanState) :
    Option (List Nat × PlanState) :=
  if ctx.deviceBudget > 0 then
    if sumUnits ctx.cost (workingSet inst).elems 0 > ctx.deviceBudget then none
    else
      evictLoop ctx pos (workingSet inst)
        (sumUnits ctx.cost (toPrefetch state inst) (ctx.cost inst.resultId))
        state.resident.size state
  else some ([], state)

/-- A result dies at its definition when nothing reads it; an operand dies when
no later instruction reads it. -/
def diesAt (ctx : PlanContext) (pos : Int) (inst : FhnInstruction) (id : Nat) : Bool :=
  if ctx.pinned.contains id then false
  else if id = inst.resultId then (ctx.uses id).isEmpty
  else decide (nextUseAfter ctx.uses id pos = ⊤)

def planStep (ctx : PlanContext) (i : Nat) (inst : FhnInstruction) (state : PlanState) :
    Option (FhnMovementActions × PlanState) :=
  let pos : Int := i
  match makeRoom ctx pos inst state with
  | none => none
  | some (victims, roomy) =>
      let incoming := toPrefetch state inst
      let allocated := roomy.allocate ctx pos inst.resultId
      let loaded := incoming.foldl (fun st id => st.prefetch ctx pos id) allocated
      let measured := loaded.recordHighWater ctx
      let touched := (operandSet inst).elems.foldl (fun st id => st.touch pos id) measured
      let dead := (workingSet inst).elems.filter (diesAt ctx pos inst)
      let freed := dead.foldl (fun st id => st.free ctx id) touched
      some ({ evict := victims, alloc := [inst.resultId], prefetch := incoming, free := dead },
        freed)

def planLoop (ctx : PlanContext) :
    List FhnInstruction → Nat → PlanState → Option (List FhnMovementActions × PlanState)
  | [], _, state => some ([], state)
  | inst :: rest, i, state =>
      match planStep ctx i inst state with
      | none => none
      | some (act, next) =>
          match planLoop ctx rest (i + 1) next with
          | none => none
          | some (acts, final) => some (act :: acts, final)

/-- The epilogue: inputs nobody reads leave with the last instruction. -/
def freeUnusedInputs (ctx : PlanContext) (inputIds : List Nat)
    (actions : List FhnMovementActions) : List FhnMovementActions :=
  let unused := inputIds.filter
    (fun id => !ctx.pinned.contains id && (ctx.uses id).isEmpty)
  actions.modify (actions.length - 1) (fun last => { last with free := last.free ++ unused })

def planContext (uses : Uses) (levelOf : Nat → Option Int) (pinned : List Nat)
    (deviceBudget : UInt64) (policy : FhnEvictionPolicy) (model : Option FhnLevelModel) :
    PlanContext where
  uses := uses
  cost := unitCost model levelOf
  pinned := pinned
  deviceBudget := deviceBudget
  policy := policy
  byteMode := model.isSome

def levelTable (model : Option FhnLevelModel) (program : FhnProgram) :
    Option (Nat → Option Int) :=
  match model with
  | none => some (fun _ => none)
  | some model => inferLevels model program

/-- The tables built before the main loop: definitions, uses and levels. -/
def prepare (program : FhnProgram) (model : Option FhnLevelModel) :
    Option (Uses × (Nat → Option Int)) := do
  let inputDefs ← defineInputs program.inputIds (fun _ => none)
  let defPos ← defineResults program.instructions 0 inputDefs
  let uses ← collectUses defPos program.instructions 0 (fun _ => [])
  let levelOf ← levelTable model program
  some (uses, levelOf)

def analyze (program : FhnProgram) (pinned : List Nat) (deviceBudget : UInt64)
    (policy : FhnEvictionPolicy) (model : Option FhnLevelModel) : Option FhnMovementPlan := do
  let (uses, levelOf) ← prepare program model
  let ctx := planContext uses levelOf pinned deviceBudget policy model
  let (actions, final) ← planLoop ctx program.instructions 0 {}
  some { actions := freeUnusedInputs ctx program.inputIds actions, stats := final.stats }

def sumOfProducts : FhnProgram where
  instructions :=
    [{ opcode := .multCC, resultId := 10, operands := ![1, 2, 0, 0] },
      { opcode := .multCC, resultId := 11, operands := ![2, 3, 0, 0] },
      { opcode := .addCC, resultId := 12, operands := ![10, 11, 0, 0] }]
  inputIds := [1, 2, 3]

def twoLevels : FhnLevelModel where
  freshLevel := 1
  bytesByLevel := [4, 8]
  effects := fun opcode => if opcode = .multCC then some .consume else some .preserve

/-- Twenty bytes hold one product and its operands, so the first product is
evicted and reloaded. -/
def sumOfProductsPlan : FhnMovementPlan where
  actions :=
    [{ evict := [], alloc := [10], prefetch := [1, 2], free := [1] },
      { evict := [10], alloc := [11], prefetch := [3], free := [2, 3] },
      { evict := [], alloc := [12], prefetch := [10], free := [10, 11] }]
  stats :=
    { highWater := 3, allocCount := 3, prefetchCount := 4, evictCount := 1,
      highWaterBytes := 20 }

theorem analyze_sum_of_products :
    analyze sumOfProducts [12] 20 .belady (some twoLevels) = some sumOfProductsPlan := by
  decide

end Fhenomenon.MovementPlanner

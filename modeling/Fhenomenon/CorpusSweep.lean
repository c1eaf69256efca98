import Fhenomenon.BudgetInclusion
import Fhenomenon.HighWaterThreshold
import Fhenomenon.NumberedPrograms

/-!
# The corpus driver's sweep over slot budgets

For each shape the driver plans at the smallest budget, at one in the middle and at the
high-water mark, and reports what fails. On a program that the shape builder made, from any
calls on ids it handed out, nothing is reported.
-/

namespace Fhenomenon.CorpusSweep

open Fhenomenon.InstructionStream Fhenomenon.MovementPlanner Fhenomenon.PlanSoundness
open Fhenomenon.BudgetInclusion Fhenomenon.PlanAcceptance Fhenomenon.PlannerThreshold
open Fhenomenon.HighWaterThreshold
open Fhenomenon.NumberedPrograms Fhenomenon.PlanLifetimes
open Fhenomenon.CorpusOracle (Slots)

/-- The counter and the instructions, with the inputs and their slots. -/
structure ShapeBuilder extends RotateReduction.ShapeBuilder where
  inputIds : List Nat := []
  inputs : List (Nat × Slots) := []

inductive Call
  | input (v : Slots)
  | cc (op : FhnOpCode) (a b : Nat)
  | cs (op : FhnOpCode) (a : Nat) (scalar : Int)
  | rot (a : Nat) (dist : Int)
  | un (op : FhnOpCode) (a : Nat)

namespace ShapeBuilder

def input (v : Slots) (b : ShapeBuilder) : ShapeBuilder :=
  { b with
    nextId := b.nextId + 1
    inputIds := b.inputIds ++ [b.nextId]
    inputs := b.inputs ++ [(b.nextId, v)] }

def emit (inst : Nat → FhnInstruction) (b : ShapeBuilder) : ShapeBuilder :=
  { b with toShapeBuilder := (b.toShapeBuilder.emit inst).2 }

def cc (op : FhnOpCode) (lhs rhs : Nat) (b : ShapeBuilder) : ShapeBuilder :=
  { b with toShapeBuilder := (b.toShapeBuilder.cc op lhs rhs).2 }

def cs (op : FhnOpCode) (a : Nat) (scalar : Int) (b : ShapeBuilder) : ShapeBuilder :=
  b.emit fun id =>
    { opcode := op, resultId := id, operands := ![a, 0, 0, 0], fparams := ![scalar, 0] }

def rot (a : Nat) (dist : Int) (b : ShapeBuilder) : ShapeBuilder :=
  { b with toShapeBuilder := (b.toShapeBuilder.rot a dist).2 }

def un (op : FhnOpCode) (a : Nat) (b : ShapeBuilder) : ShapeBuilder :=
  b.emit fun id => { opcode := op, resultId := id, operands := ![a, 0, 0, 0] }

/-- Each call returns the id that the counter had. -/
def perform (call : Call) (b : ShapeBuilder) : ShapeBuilder :=
  match call with
  | .input v => b.input v
  | .cc op lhs rhs => b.cc op lhs rhs
  | .cs op a scalar => b.cs op a scalar
  | .rot a dist => b.rot a dist
  | .un op a => b.un op a

def finish (outputIds : List Nat) (b : ShapeBuilder) : FhnProgram where
  instructions := b.insts
  inputIds := b.inputIds
  outputIds := outputIds

end ShapeBuilder

def Call.operands : Call → List Nat
  | .input _ => []
  | .cc _ a b => [a, b]
  | .cs _ a _ | .rot a _ | .un _ a => [a]

/-- Every call reads ids that the builder has handed out. -/
def Buildable : List Call → ShapeBuilder → Prop
  | [], _ => True
  | call :: rest, b => (∀ id ∈ call.operands, id < b.nextId) ∧ Buildable rest (b.perform call)

def performAll (calls : List Call) (b : ShapeBuilder) : ShapeBuilder :=
  calls.foldl (fun b call => b.perform call) b

/-- `maxWorkingSet`. The ids are sorted and made unique, and only their number is read. -/
def maxWorkingSet (program : FhnProgram) : UInt32 :=
  program.instructions.foldl
    (fun most inst => max most (UInt32.ofNat (inst.resultId :: inst.usedOperands).dedup.length)) 0

/-- What the driver prints to `stderr` about one budget. -/
def checkPoint (name : String) (program : FhnProgram) (outputIds : List Nat)
    (highWater budget : UInt32) : List String :=
  match analyze program outputIds budget.toUInt64 .belady none,
    analyze program outputIds budget.toUInt64 .lru none with
  | some belady, some _ =>
      if budget = highWater ∧ belady.stats.evictCount ≠ 0 then
        ["FAIL " ++ name ++ ": evictions at the high-water budget"]
      else []
  | _, _ => ["FAIL " ++ name ++ ": budget " ++ toString budget ++ " infeasible"]

/-- The three budgets, in order and each once. -/
def points (bMin highWater : UInt32) : List UInt32 :=
  let bMid := max bMin ((highWater * 6 + 9) / 10)
  ([bMin, bMid, highWater].mergeSort fun first second => decide (first ≤ second)).dedup

/-- The slot sweep over one shape. -/
def slotSweep (name : String) (program : FhnProgram) (outputIds : List Nat) : List String :=
  match analyze program outputIds 0 .belady none with
  | none => ["FAIL " ++ name ++ ": movement analysis rejected the program"]
  | some unlimited =>
      (points (maxWorkingSet program) unlimited.stats.highWater).flatMap
        (checkPoint name program outputIds unlimited.stats.highWater)

section Builder

variable {b : ShapeBuilder}

def ShapeBuilder.sofar (b : ShapeBuilder) : FhnProgram where
  instructions := b.insts
  inputIds := b.inputIds

structure Built (b : ShapeBuilder) : Prop where
  positive : b.nextId ≠ 0
  numbered : Numbered b.sofar b.nextId
  small : ∀ inst ∈ b.insts, (workingIds inst).card ≤ 3

theorem built_start : Built {} where
  positive := Nat.one_ne_zero
  numbered := numbered_empty
  small := by simp

theorem pair_small {inst : FhnInstruction} {lhs rhs : Nat}
    (operands : inst.operands = ![lhs, rhs, 0, 0]) : (workingIds inst).card ≤ 3 := by
  have below : workingIds inst ⊆ {inst.resultId, lhs, rhs} := by
    intro id member
    rcases Finset.mem_insert.mp member with rfl | used
    · exact Finset.mem_insert_self _ _
    · rcases used_of_pair operands (List.mem_toFinset.mp used) with rfl | rfl <;> simp
  exact (Finset.card_le_card below).trans Finset.card_le_three

theorem built_emit (built : Built b) {inst : Nat → FhnInstruction} {lhs rhs : Nat}
    (named : (inst b.nextId).resultId = b.nextId)
    (operands : (inst b.nextId).operands = ![lhs, rhs, 0, 0])
    (first : lhs < b.nextId) (second : rhs < b.nextId) : Built (b.emit inst) where
  positive := Nat.succ_ne_zero _
  numbered := by
    apply numbered_instruction built.numbered built.positive named
    intro id used
    rcases used_of_pair operands used with rfl | rfl
    · exact first
    · exact second
  small := by
    intro other member
    rcases List.mem_append.mp member with old | new
    · exact built.small other old
    · rw [List.mem_singleton.mp new]
      exact pair_small operands

theorem built_perform (built : Built b) {call : Call}
    (handed : ∀ id ∈ call.operands, id < b.nextId) : Built (b.perform call) := by
  have zero : 0 < b.nextId := Nat.pos_of_ne_zero built.positive
  cases call with
  | input v =>
      exact ⟨Nat.succ_ne_zero _, numbered_input built.numbered built.positive, built.small⟩
  | cc op lhs rhs =>
      have made : Built (b.emit fun id => RotateReduction.ccInst op id lhs rhs) :=
        built_emit built rfl rfl (handed lhs (by simp [Call.operands]))
          (handed rhs (by simp [Call.operands]))
      exact made
  | cs op a scalar => exact built_emit built rfl rfl (handed a (by simp [Call.operands])) zero
  | rot a dist =>
      have made : Built (b.emit fun id => RotateReduction.rotInst id a dist) :=
        built_emit built rfl rfl (handed a (by simp [Call.operands])) zero
      exact made
  | un op a => exact built_emit built rfl rfl (handed a (by simp [Call.operands])) zero

theorem perform_next (call : Call) (b : ShapeBuilder) :
    (b.perform call).nextId = b.nextId + 1 := by
  cases call <;> rfl

theorem built_all (calls : List Call) (built : Built b) (buildable : Buildable calls b) :
    Built (performAll calls b) ∧ (performAll calls b).nextId = b.nextId + calls.length := by
  induction calls generalizing b with
  | nil => exact ⟨built, rfl⟩
  | cons call rest induction =>
      obtain ⟨handed, later⟩ := buildable
      obtain ⟨reached, count⟩ := induction (built_perform built handed) later
      refine ⟨reached, count.trans ?_⟩
      rw [perform_next, List.length_cons]
      omega

theorem finish_valid (built : Built b) (outputIds : List Nat) :
    SsaValid (b.finish outputIds) where
  nonzero := built.numbered.valid.nonzero
  nodup := built.numbered.valid.nodup
  operandsDefined := built.numbered.valid.operandsDefined

theorem finish_representable (built : Built b) (fits : b.nextId ≤ 2 ^ 32)
    (outputIds : List Nat) : Representable (b.finish outputIds) := by
  intro id defined
  exact ((built.numbered.covers id).mp defined).2.trans_le fits

end Builder

section Sweep

variable {program : FhnProgram}

theorem working_count (inst : FhnInstruction) :
    (inst.resultId :: inst.usedOperands).dedup.length = (workingIds inst).card := by
  rw [workingIds, ← List.toFinset_cons, List.card_toFinset]

theorem fold_max_le_iff (insts : List FhnInstruction) (start : UInt32) (limit : Nat) :
    (insts.foldl (fun most inst =>
      max most (UInt32.ofNat (inst.resultId :: inst.usedOperands).dedup.length)) start).toNat ≤
        limit ↔ start.toNat ≤ limit ∧ ∀ inst ∈ insts, (workingIds inst).card ≤ limit := by
  induction insts generalizing start with
  | nil => simp
  | cons inst rest induction =>
      have few := working_ids_card inst
      rw [List.foldl_cons, induction, UInt32.toNat_max, UInt32.toNat_ofNat', working_count,
        Nat.mod_eq_of_lt (by omega), max_le_iff, List.forall_mem_cons, and_assoc]

theorem max_working_set_le_iff (limit : Nat) :
    (maxWorkingSet program).toNat ≤ limit ↔
      ∀ inst ∈ program.instructions, (workingIds inst).card ≤ limit := by
  rw [maxWorkingSet, fold_max_le_iff]
  simp

theorem mem_points {bMin highWater budget : UInt32} (member : budget ∈ points bMin highWater) :
    budget = highWater ∨ bMin ≤ budget := by
  have listed : budget ∈ [bMin, max bMin ((highWater * 6 + 9) / 10), highWater] :=
    List.mem_mergeSort.mp (List.mem_dedup.mp member)
  simp only [List.mem_cons, List.not_mem_nil, or_false] at listed
  rcases listed with rfl | rfl | rfl
  · exact Or.inr (UInt32.le_refl _)
  · refine Or.inr (UInt32.le_iff_toNat_le.mpr ?_)
    rw [UInt32.toNat_max]
    exact Nat.le_max_left _ _
  · exact Or.inl rfl

/-- A plan of the unlimited device has no eviction to count. -/
theorem unlimited_counts_none {pinned : List Nat} {unlimited : FhnMovementPlan}
    (accepted : analyze program pinned 0 .belady none = some unlimited) :
    unlimited.stats.evictCount = 0 := by
  obtain ⟨levelOf, acts, states, leveled, run⟩ := analyze_run accepted
  have still := (plan_evictless_iff run).mpr (unlimited_still run)
  have none : (unlimited.actions.map fun act => act.evict.length).sum = 0 := by
    apply List.sum_eq_zero
    intro count member
    obtain ⟨act, listed, rfl⟩ := List.mem_map.mp member
    rw [still act listed, List.length_nil]
  rw [(analysis_counters run).2, none]
  rfl

/-- At the high-water mark the driver gets the unlimited plan again. -/
theorem high_water_again (representable : Representable program) {pinned : List Nat}
    {unlimited : FhnMovementPlan}
    (accepted : analyze program pinned 0 .belady none = some unlimited) :
    analyze program pinned unlimited.stats.highWater.toUInt64 .belady none = some unlimited := by
  by_cases zero : unlimited.stats.highWater.toUInt64 = 0
  · rw [zero, accepted]
  · have exact := slot_threshold_exact program pinned .belady unlimited representable accepted
    exact exact.enough _ (UInt64.pos_iff_ne_zero.mpr zero) (UInt64.le_refl _)

theorem check_point_passes {nextId : Nat} (numbered : Numbered program nextId)
    (representable : Representable program) (name : String) {pinned : List Nat}
    {unlimited : FhnMovementPlan}
    (accepted : analyze program pinned 0 .belady none = some unlimited) {budget : UInt32}
    (point : budget = unlimited.stats.highWater ∨ maxWorkingSet program ≤ budget) :
    checkPoint name program pinned unlimited.stats.highWater budget = [] := by
  have feasible := numbered_accepted numbered pinned budget.toUInt64
  have lru : ∀ belady, analyze program pinned budget.toUInt64 .belady none = some belady →
      ∃ other, analyze program pinned budget.toUInt64 .lru none = some other :=
    fun belady planned => (feasible .lru).mpr ((feasible .belady).mp ⟨belady, planned⟩)
  by_cases mark : budget = unlimited.stats.highWater
  · have again := high_water_again representable accepted
    rw [← mark] at again
    obtain ⟨other, planned⟩ := lru unlimited again
    have quiet := unlimited_counts_none accepted
    rw [checkPoint, again, planned]
    exact if_neg fun evicts => evicts.2 quiet
  · have below : (maxWorkingSet program).toNat ≤ budget.toNat :=
      UInt32.le_iff_toNat_le.mp (point.resolve_left mark)
    have fits := (max_working_set_le_iff budget.toNat).mp below
    rw [← UInt32.toNat_toUInt64] at fits
    obtain ⟨belady, first⟩ := (feasible .belady).mpr (Or.inr fits)
    obtain ⟨other, second⟩ := lru belady first
    rw [checkPoint, first, second]
    exact if_neg fun evicts => mark evicts.1

/-- No shape that a builder makes fails the sweep, and three slots are enough for it. -/
theorem built_shapes_pass (name : String) (calls : List Call) (outputIds : List Nat)
    (buildable : Buildable calls {}) (fits : calls.length < 2 ^ 32) :
    let program := (performAll calls {}).finish outputIds
    slotSweep name program outputIds = [] ∧ (maxWorkingSet program).toNat ≤ 3 := by
  obtain ⟨built, count⟩ := built_all calls built_start buildable
  have start : ({} : ShapeBuilder).nextId = 1 := rfl
  have valid := finish_valid built outputIds
  have representable := finish_representable built (by omega) outputIds
  have numbered : Numbered ((performAll calls {}).finish outputIds) (performAll calls {}).nextId :=
    ⟨valid, built.numbered.covers⟩
  constructor
  · obtain ⟨unlimited, accepted⟩ := analyze_unlimited_accepts
      ((performAll calls {}).finish outputIds) outputIds .belady valid
    rw [slotSweep, accepted]
    apply List.flatMap_eq_nil_iff.mpr
    intro budget member
    exact check_point_passes numbered representable name accepted (mem_points member)
  · exact (max_working_set_le_iff 3).mpr built.small

end Sweep

/-- `a * b + a`, doubled, and the sum itself kept as an output. -/
def sumCalls : List Call :=
  [.input [2], .input [5], .cc .multCC 1 2, .cc .addCC 3 1, .cs .multCS 4 2]

theorem sum_calls_pass :
    Buildable sumCalls {} ∧
      slotSweep "sum" ((performAll sumCalls {}).finish [4, 5]) [4, 5] = [] := by
  have buildable : Buildable sumCalls {} := by
    simp [sumCalls, Buildable, Call.operands, ShapeBuilder.perform, ShapeBuilder.input,
      ShapeBuilder.cc, RotateReduction.ShapeBuilder.cc, RotateReduction.ShapeBuilder.emit]
  exact ⟨buildable, (built_shapes_pass "sum" sumCalls [4, 5] buildable (by decide)).1⟩

end Fhenomenon.CorpusSweep
